import Inworkspace.Dav.Lock
import Mathlib.Data.List.SplitBy

/-!
# Conditional requests

The headers `If`, `If-Match` and `If-None-Match` of a request, as `RequestHeaders::parse` reads them
one after the other into one list of lists of conditions. `validateHeaders` lets a request through
if one of these lists holds (`evaluateIfs_iff`), whichever header it is from, and if none has been
read.

What the headers ask for is `Header.IsSatisfied`: each of them is to be satisfied, an `If` header by
one of the lists its text has by its grammar (`Reads`), where a tag is for all lists up to the next
tag. Of such a text `parseIf` reads all lists, but a tag is for the first list behind it only
(`parseIf_of_reads`).

A request that is let through satisfies its headers if they are plain, and either all or none of
them are satisfied (`validateHeaders_satisfied`).
-/

namespace Inworkspace.Dav

open Condition List Option

/-! ## Reading the headers -/

/-- Where `parse_if` is: between the lists, in a tag, in a list, in a `Not`, or in a condition; or
    it has returned. -/
inductive Place where
  | outside
  | tag (text : Text)
  | list (isNot : Bool) (conditions : List Condition)
  | keyword (expected : Text) (conditions : List Condition)
  | condition (isETag isNot : Bool) (text : Text) (conditions : List Condition)
  | returned

/-- What `parse_if` has read: the tag for the next list, the lists, and where it is. -/
structure IfParser where
  resource : Option Text
  ifs : List If
  place : Place

def isAsciiWhitespace (ch : Char) : Bool := ch ∈ [' ', '\t', '\n', '\x0c', '\r']

/-- A condition of a list. -/
def Condition.ofText (isETag isNot : Bool) (text : Text) : Condition :=
  if isETag then .eTag isNot text else .stateToken isNot text

namespace IfParser

/-- The next character. -/
def step (self : IfParser) (ch : Char) : IfParser :=
  match self.place with
  | .outside =>
    if ch = '<' ∧ self.resource = none then { self with place := .tag [] }
    else if ch = '(' then { self with place := .list false [] }
    else if isAsciiWhitespace ch then self
    else { self with place := .returned }
  | .tag text =>
    if ch = '>' then { self with resource := some text, place := .outside }
    else { self with place := .tag (text ++ [ch]) }
  | .list isNot conditions =>
    if ch = 'N' then { self with place := .keyword ['o', 't'] conditions }
    else if ch = '<' then { self with place := .condition false isNot [] conditions }
    else if ch = '[' then { self with place := .condition true isNot [] conditions }
    -- the tag is taken
    else if ch = ')' then ⟨none, self.ifs ++ [⟨self.resource, conditions⟩], .outside⟩
    else if isAsciiWhitespace ch then self
    else { self with place := .returned }
  | .keyword expected conditions =>
    if expected.head? ≠ some ch then { self with place := .returned }
    else if expected.tail = [] then { self with place := .list true conditions }
    else { self with place := .keyword expected.tail conditions }
  | .condition isETag isNot text conditions =>
    if ch = (if isETag then ']' else '>') then
      { self with place := .list false (conditions ++ [.ofText isETag isNot text]) }
    else { self with place := .condition isETag isNot (text ++ [ch]) conditions }
  | .returned => self

def start : IfParser := ⟨none, [], .outside⟩

end IfParser

def parseIf (value : Text) : List If := (value.foldl IfParser.step .start).ifs

def trim (text : Text) : Text :=
  ((text.dropWhile Char.isWhitespace).reverse.dropWhile Char.isWhitespace).reverse

/-- The tags of `If-Match` or `If-None-Match`. -/
def etags (value : Text) : List Text := (value.splitOn ',').map trim

def parseIfMatch (value : Text) (isNot : Bool) : List If :=
  if value = ['*'] then [⟨none, [.exists isNot]⟩]
  else if !isNot then (etags value).map fun tag => ⟨none, [.eTag isNot tag]⟩
  else [⟨none, (etags value).map (.eTag isNot)⟩]

/-- A header that makes a request conditional. -/
inductive Header where
  | if_ (value : Text)
  | ifMatch (value : Text)
  | ifNoneMatch (value : Text)

/-- What `RequestHeaders::parse` adds to `if_`. -/
def Header.parse : Header → List If
  | if_ value => parseIf value
  | ifMatch value => parseIfMatch value false
  | ifNoneMatch value => parseIfMatch value true

def RequestHeaders.ofHeaders (baseUri : Text) (overwriteFail : Bool) (headers : List Header) :
    RequestHeaders :=
  ⟨baseUri, overwriteFail, headers.foldl (fun ifs header => ifs ++ header.parse) []⟩

/-! ## The lists of a text -/

/-- A list of an `If` header: the tag in force, whether it is the first list behind it, and the
    conditions. -/
structure TaggedList where
  resource : Option Text
  isFirst : Bool
  list : List Condition

/-- The list is about the resource of the tag. -/
def TaggedList.meant (self : TaggedList) : If := ⟨self.resource, self.list⟩

/-- The list as it is read. -/
def TaggedList.read (self : TaggedList) : If :=
  ⟨if self.isFirst then self.resource else none, self.list⟩

/-- The text of the conditions of a list, behind a `Not` or not. -/
inductive ReadsConditions : Bool → Text → List Condition → Prop
  | nil : ReadsConditions false [] []
  | space {isNot text conditions} {ch : Char} (hch : isAsciiWhitespace ch = true)
      (h : ReadsConditions isNot text conditions) : ReadsConditions isNot (ch :: text) conditions
  | not {text conditions} (h : ReadsConditions true text conditions) :
      ReadsConditions false ('N' :: 'o' :: 't' :: text) conditions
  | token {isNot text conditions} {token : Text} (htoken : '>' ∉ token)
      (h : ReadsConditions false text conditions) :
      ReadsConditions isNot ('<' :: token ++ '>' :: text) (.stateToken isNot token :: conditions)
  | eTag {isNot text conditions} {tag : Text} (htag : ']' ∉ tag)
      (h : ReadsConditions false text conditions) :
      ReadsConditions isNot ('[' :: tag ++ ']' :: text) (.eTag isNot tag :: conditions)

/-- The text of an `If` header, behind a tag without a list or not, with the tag in force. -/
inductive Reads : Bool → Option Text → Text → List TaggedList → Prop
  | nil {resource} : Reads false resource [] []
  | space {isFirst resource text lists} {ch : Char} (hch : isAsciiWhitespace ch = true)
      (h : Reads isFirst resource text lists) : Reads isFirst resource (ch :: text) lists
  | tag {resource text lists} {uri : Text} (huri : '>' ∉ uri)
      (h : Reads true (some uri) text lists) : Reads false resource ('<' :: uri ++ '>' :: text) lists
  | list {isFirst resource text lists} {body : Text} {conditions : List Condition}
      (hbody : ReadsConditions false body conditions) (hne : conditions ≠ [])
      (h : Reads false resource text lists) :
      Reads isFirst resource ('(' :: body ++ ')' :: text)
        (⟨resource, isFirst, conditions⟩ :: lists)

namespace IfParser

variable {resource : Option Text} {ifs : List If} {conditions : List Condition}

theorem step_space_outside {ch : Char} (hch : isAsciiWhitespace ch = true) :
    step ⟨resource, ifs, .outside⟩ ch = ⟨resource, ifs, .outside⟩ := by
  have hne : ch ≠ '<' ∧ ch ≠ '(' := by constructor <;> (rintro rfl; exact absurd hch (by decide))
  simp [step, hne, hch]

/-- The characters of a tag. -/
theorem foldl_step_tag {uri : Text} (huri : '>' ∉ uri) (text rest : Text) :
    (uri ++ '>' :: rest).foldl step ⟨resource, ifs, .tag text⟩ =
      rest.foldl step ⟨some (text ++ uri), ifs, .outside⟩ := by
  induction uri generalizing text with
  | nil => simp [step]
  | cons ch uri ih =>
    obtain ⟨hch, huri⟩ := ne_and_not_mem_of_not_mem_cons huri
    have hstep : step ⟨resource, ifs, .tag text⟩ ch = ⟨resource, ifs, .tag (text ++ [ch])⟩ :=
      if_neg hch.symm
    rw [cons_append, foldl_cons, hstep, ih huri, append_assoc]
    rfl

/-- The characters of a condition. -/
theorem foldl_step_condition {isETag isNot : Bool} {conditions : List Condition} {value : Text}
    (hvalue : (if isETag then ']' else '>') ∉ value) (text rest : Text) :
    (value ++ (if isETag then ']' else '>') :: rest).foldl step
        ⟨resource, ifs, .condition isETag isNot text conditions⟩ =
      rest.foldl step ⟨resource, ifs,
        .list false (conditions ++ [.ofText isETag isNot (text ++ value)])⟩ := by
  induction value generalizing text with
  | nil => simp [step]
  | cons ch value ih =>
    obtain ⟨hch, hvalue⟩ := ne_and_not_mem_of_not_mem_cons hvalue
    have hstep : step ⟨resource, ifs, .condition isETag isNot text conditions⟩ ch =
        ⟨resource, ifs, .condition isETag isNot (text ++ [ch]) conditions⟩ := if_neg hch.symm
    rw [cons_append, foldl_cons, hstep, ih hvalue, append_assoc]
    rfl

/-- The conditions of a list are read as they are. -/
theorem foldl_step_list {isNot : Bool} {body : Text} (h : ReadsConditions isNot body conditions)
    (before : List Condition) (rest : Text) :
    (body ++ ')' :: rest).foldl step ⟨resource, ifs, .list isNot before⟩ =
      rest.foldl step ⟨none, ifs ++ [⟨resource, before ++ conditions⟩], .outside⟩ := by
  induction h generalizing before with
  | nil => simp [step]
  | @space _ _ _ ch hch _ ih =>
    have hne : ch ≠ 'N' ∧ ch ≠ '<' ∧ ch ≠ '[' ∧ ch ≠ ')' := by
      refine ⟨?_, ?_, ?_, ?_⟩ <;> (rintro rfl; exact absurd hch (by decide))
    rw [cons_append, foldl_cons, ← ih]
    simp [step, hne, hch]
  | not _ ih => exact ih before
  | @token isNot text conditions token htoken _ ih =>
    have hvalue : (if false then ']' else '>') ∉ token := htoken
    rw [append_assoc, cons_append, cons_append]
    refine (foldl_step_condition hvalue [] _).trans ?_
    rw [ih, append_assoc]
    rfl
  | @eTag isNot text conditions tag htag _ ih =>
    have hvalue : (if true then ']' else '>') ∉ tag := htag
    rw [append_assoc, cons_append, cons_append]
    refine (foldl_step_condition hvalue [] _).trans ?_
    rw [ih, append_assoc]
    rfl

/-- The machine collects the lists of the grammar. -/
theorem foldl_step_reads {isFirst : Bool} {resource : Option Text} {text : Text}
    {lists : List TaggedList} (h : Reads isFirst resource text lists) (ifs : List If) :
    text.foldl step ⟨if isFirst then resource else none, ifs, .outside⟩ =
      ⟨none, ifs ++ lists.map TaggedList.read, .outside⟩ := by
  induction h generalizing ifs with
  | nil => simp
  | space hch _ ih => rw [foldl_cons, step_space_outside hch, ih]
  | tag huri _ ih => exact (foldl_step_tag huri [] _).trans (ih ifs)
  | @list isFirst resource text lists body conditions hbody _ _ ih =>
    refine (foldl_step_list hbody [] _).trans ((ih _).trans ?_)
    rw [append_assoc]
    rfl

end IfParser

/-- A text that follows the grammar is read, but only the first list behind a tag is about its
    resource. -/
theorem parseIf_of_reads {text : Text} {lists : List TaggedList} (h : Reads false none text lists) :
    parseIf text = lists.map TaggedList.read := by
  exact congrArg IfParser.ifs (IfParser.foldl_step_reads h [])

/-! ## The lists that hold -/

section Evaluate

variable {D : Type} (env : Env D) (list : List Condition) (resources : List ResourceState)

/-- A resource with all that is found out about it when it is asked for. -/
def known (resource : ResourceState) : ResourceState :=
  if resource.collection = .none then { resource with documentId := none }
  else
    { resource with
      documentId := none
      etag := resource.etag.or
        (let documentId := resource.documentId.getD
          ((env.documentAt resource.accountId resource.collection resource.path).getD noDocument)
        if documentId ≠ noDocument then
          env.etagOf resource.accountId resource.collection documentId
        else none)
      lockTokens :=
        if resource.lockTokens.isEmpty then
          (env.findLocks resource false).map fun lock => lockUrn lock.2.lockId
        else resource.lockTokens
      syncToken := resource.syncToken.or
        (some (env.syncTokenOf resource.accountId resource.collection)) }

/-- Nothing changes about what can be found out. -/
theorem known_fill (resource : ResourceState) :
    known env (fill env list resource) = known env resource := by
  by_cases hnone : resource.collection = .none
  · simp [fill, hnone]
  · simp only [fill]
    split_ifs <;> simp_all [known, Env.findLocks]

/-- The conditions of a list hold of what they ask for as of all there is. -/
theorem holds_fill {list : List Condition} {condition : Condition} (h : condition ∈ list)
    (resource : ResourceState) :
    condition.holds (fill env list resource) = condition.holds (known env resource) := by
  have hasks {asks : Condition → Bool} (hc : asks condition = true) : list.any asks = true :=
    any_eq_true.mpr ⟨condition, h, hc⟩
  by_cases hnone : resource.collection = .none
  · cases condition <;> simp [fill, known, hnone, holds]
  rw [fill]
  split
  case isTrue =>
    -- what is missing is read if some condition of the list asks for it, as this one does
    extract_lets needsSyncToken needsLockToken needsEtag documentId withEtag withLocks
    have hetag (hneeds : needsEtag = true) : withLocks.etag = (known env resource).etag := by
      have hfirst : withEtag.etag = (known env resource).etag := by
        simp only [withEtag, hneeds, known, if_neg hnone]
        cases hetag : resource.etag <;> simp [hetag, documentId]
      rw [← hfirst]
      simp only [withLocks]
      split <;> rfl
    have hlocks (hneeds : needsLockToken = true) :
        withLocks.lockTokens = (known env resource).lockTokens := by
      have hsame : withEtag.lockTokens = resource.lockTokens ∧
          env.findLocks withEtag false = env.findLocks resource false := by
        simp only [withEtag]
        split <;> exact ⟨rfl, rfl⟩
      simp only [withLocks, hneeds, hsame, known, true_and]
      split
      · rfl
      · exact hsame.1
    have hsame : withLocks.accountId = resource.accountId ∧
        withLocks.collection = resource.collection ∧
        withLocks.syncToken = resource.syncToken := by
      simp only [withLocks, withEtag]
      split_ifs <;> exact ⟨rfl, rfl, rfl⟩
    cases condition with
    | stateToken isNot token =>
      by_cases hsyncToken : davSync.isPrefixOf token = true
      · have hneeds : needsSyncToken = true := hasks hsyncToken
        simp only [holds, tryExtractSyncId, hsyncToken, hneeds, known, if_neg hnone]
        cases hsync : resource.syncToken <;> simp [hsame, hsync]
      · have hneeds : needsLockToken = true := hasks (by simp [hsyncToken])
        simp only [holds, tryExtractSyncId, if_neg hsyncToken]
        rw [← hlocks hneeds]
        split <;> rfl
    | eTag isNot tag =>
      rw [holds, holds, ← hetag (hasks rfl)]
      split <;> rfl
    | «exists» isNot =>
      rw [holds, holds, ← hetag (hasks rfl)]
      split <;> rfl
  case isFalse hpresent =>
    -- nothing is missing, so nothing is read
    simp only [ne_eq, hnone, not_false_eq_true, true_and, not_or, Bool.not_eq_true,
      isNone_eq_false_iff, isSome_iff_exists] at hpresent
    obtain ⟨⟨etag, hetag⟩, hlocks, syncToken, hsync⟩ := hpresent
    have hknown : known env resource = { resource with documentId := none } := by
      simp [known, hetag, hlocks, hsync]
    rw [hknown]
    cases condition <;> rfl

/-- The resource at the same place. -/
def ResourceState.isAt (place r : ResourceState) : Bool :=
  r.accountId = place.accountId ∧ r.collection = place.collection ∧ r.path = place.path

/-- A resource that does not exist. -/
def notFound : ResourceState := .new noDocument .none []

/-- The resource of a list: that of its tag, if the user may know of it, or the first of the
    request. -/
def If.target (cond : If) : ResourceState :=
  match cond.resource with
  | none => resources.head?.getD notFound
  | some uri =>
    match resolve env uri with
    | none => notFound
    | some place =>
      (resources.find? place.isAt).getD
        (if env.hasAccess place.accountId place.collection then known env place else notFound)

/-- A list holds of the resource that it is about, of which all is known. -/
def If.Holds (cond : If) : Prop :=
  cond.list ≠ [] ∧ ∀ condition ∈ cond.list,
    condition.holds (cond.target env (resources.map (known env))) = true

variable {env} {resources} {place : ResourceState}

theorem isAt_known (place resource : ResourceState) :
    place.isAt (known env resource) = place.isAt resource := by
  rw [known]
  split <;> rfl

/-- A tag stands for a resource of which nothing is known yet. -/
theorem eq_of_resolve {uri : Text} (h : resolve env uri = some place) :
    place = .new place.accountId place.collection place.path := by
  simp only [resolve, bind_eq_bind, bind_eq_some_iff, Option.pure_def, some.injEq] at h
  obtain ⟨_, -, _, -, _, -, rfl⟩ := h
  rfl

/-- A resource that is added is the one its tag has been for before. -/
theorem target_append (hne : resources ≠ []) {uri : Text} (hplace : resolve env uri = some place)
    (haccess : env.hasAccess place.accountId place.collection = true) (cond : If) :
    cond.target env (resources ++ [known env place]) = cond.target env resources := by
  obtain ⟨_ | uri', list⟩ := cond
  · simp [If.target, head?_append_of_ne_nil _ hne]
  simp only [If.target]
  rcases hplace' : resolve env uri' with _ | place'
  · rfl
  simp only [find?_append]
  cases hfind' : resources.find? place'.isAt with
  | some resource => rfl
  | none =>
    by_cases hat : place'.isAt place = true
    · have heq : place = place' := by
        have hboth := of_decide_eq_true hat
        rw [eq_of_resolve hplace, eq_of_resolve hplace', hboth.1, hboth.2.1, hboth.2.2]
      subst heq
      simp [isAt_known, hat, haccess]
    · simp [isAt_known, hat]

/-- The resource of a list is found among the resources, to which it may be added. -/
theorem locate_spec (hne : resources ≠ []) (cond : If) :
    (((locate env resources cond).2.bind ((locate env resources cond).1[·]?)).map (known env)).getD
        notFound = cond.target env (resources.map (known env)) ∧
      (locate env resources cond).1 ≠ [] ∧
      ∀ other : If, other.target env ((locate env resources cond).1.map (known env)) =
        other.target env (resources.map (known env)) := by
  obtain ⟨_ | uri, list⟩ := cond
  · obtain ⟨first, rest, rfl⟩ := exists_cons_of_ne_nil hne
    simp [locate, If.target]
  rcases hplace : resolve env uri with _ | place
  · simp [locate, If.target, hplace, hne]
  have hfind : (resources.map (known env)).find? place.isAt =
      ((resources.findIdx? place.isAt).bind (resources[·]?)).map (known env) := by
    rw [← find?_eq_bind_findIdx?_getElem?, find?_map]
    congr 2
    funext resource
    exact isAt_known place resource
  -- the code looks for the index of a resource, the target is the resource itself
  have hlocate : locate env resources ⟨some uri, list⟩ = (resources.findIdx? place.isAt).elim
      (if env.hasAccess place.accountId place.collection then
        (resources ++ [place], some resources.length)
      else (resources, none)) fun idx => (resources, some idx) := by
    simp only [locate, hplace]
    delta ResourceState.isAt
    split <;> rename_i hidx <;> rw [hidx, Option.elim]
  rw [hlocate, If.target]
  simp only [hplace, hfind]
  cases hidx : resources.findIdx? place.isAt with
  | some idx =>
    obtain ⟨hlt, -⟩ := findIdx?_eq_some_iff_getElem.mp hidx
    exact ⟨by simp [hlt], hne, fun _ => rfl⟩
  | none =>
    by_cases haccess : env.hasAccess place.accountId place.collection = true
    · refine ⟨by simp [haccess], by simp [haccess], fun other => ?_⟩
      simp only [haccess, if_true, Option.elim, map_append]
      exact target_append (by simpa using hne) hplace haccess other
    · simp [haccess, hne]

/-- What is found out for a list does not change the resources otherwise. -/
theorem map_known_set (idx : Option ℕ) :
    (match idx, (idx.bind (resources[·]?)).map (fill env list) with
      | some idx, some state => resources.set idx state
      | _, _ => resources).map (known env) = resources.map (known env) := by
  obtain _ | idx := idx
  · rfl
  rw [bind_some]
  cases hidx : resources[idx]? with
  | none => rfl
  | some resource =>
    obtain ⟨hlt, rfl⟩ := List.getElem?_eq_some_iff.mp hidx
    simp only [map_some, map_set, known_fill]
    rw [← map_set, set_getElem_self]

/-- One of the lists holds, whatever was found out before it. -/
theorem evaluateIfs_iff (hne : resources ≠ []) (ifs : List If) :
    evaluateIfs env ifs resources = true ↔ ∃ cond ∈ ifs, cond.Holds env resources := by
  induction ifs generalizing resources with
  | nil => simp [evaluateIfs]
  | cons cond ifs ih =>
    rw [evaluateIfs, exists_mem_cons_iff]
    by_cases hempty : cond.list = []
    · simp [hempty, If.Holds, ih hne]
    obtain ⟨htarget, hnext, hothers⟩ := @locate_spec _ env _ hne cond
    rw [if_neg (by simpa using hempty)]
    extract_lets located state
    have hholds : cond.list.all (holds (state.getD (.new noDocument .none []))) = true ↔
        cond.Holds env resources := by
      rw [If.Holds, ← htarget, List.all_eq_true, and_iff_right hempty]
      refine forall₂_congr fun condition hcondition => ?_
      simp only [state]
      cases located.2.bind (located.1[·]?) with
      | none => rfl
      | some resource => exact Eq.congr_left (holds_fill env hcondition resource)
    split
    case isTrue hall => exact iff_of_true rfl (.inl (hholds.mp hall))
    case isFalse hall =>
      rw [← hholds, or_iff_right hall]
      -- what was found out stays in the list, and is what the next lists would find
      have hrest (next : List ResourceState)
          (hmap : next.map (known env) = located.1.map (known env)) :
          evaluateIfs env ifs next = true ↔ ∃ cond ∈ ifs, cond.Holds env resources := by
        have hnil : next ≠ [] := by
          rintro rfl
          exact hnext (map_eq_nil_iff.mp hmap.symm)
        rw [ih hnil]
        simp only [If.Holds, hmap, located, hothers]
      exact hrest _ (map_known_set cond.list located.2)

end Evaluate

/-! ## Requests that are let through -/

section Requests

variable {D : Type} (env : Env D)

/-- The tag of the resource is among those of `If-Match`, and not among those of `If-None-Match`,
    and a list of an `If` header holds. -/
def Header.IsSatisfied (resource : ResourceState) (resources : List ResourceState) : Header → Prop
  | .if_ value => ∃ lists, Reads false none value lists ∧
      ∃ list ∈ lists, list.meant.Holds env (resource :: resources)
  | .ifMatch value =>
      if value = ['*'] then (known env resource).etag.isSome = true
      else ∃ tag ∈ etags value, (known env resource).etag = some tag
  | .ifNoneMatch value =>
      if value = ['*'] then (known env resource).etag = none
      else ∀ tag ∈ etags value, (known env resource).etag ≠ some tag

variable {env} {resources : List ResourceState} {resource : ResourceState}

theorem mem_ofHeaders_iff {baseUri : Text} {overwriteFail : Bool} {headers : List Header}
    {cond : If} :
    cond ∈ (RequestHeaders.ofHeaders baseUri overwriteFail headers).ifs ↔
      ∃ header ∈ headers, cond ∈ header.parse := by
  rw [RequestHeaders.ofHeaders, ← flatMap_eq_foldl, mem_flatMap]

/-- A request is let through only if a list that has been read holds, or none has been. -/
theorem exists_holds_of_validateHeaders {request : RequestHeaders} {method : DavMethod}
    (h : validateHeaders env request (resource :: resources) method = .ok ()) :
    request.ifs = [] ∨ ∃ cond ∈ request.ifs, cond.Holds env (resource :: resources) := by
  refine or_iff_not_imp_left.mpr fun hsome => ?_
  rw [← evaluateIfs_iff (cons_ne_nil _ _)]
  by_contra hfails
  rw [validateHeaders, if_neg (by simp [hsome])] at h
  split at h
  · cases h
  · simp [hsome] at h

/-- An `If` header that follows the grammar, with one list for each tag, or another header. -/
def Header.IsPlain : Header → Prop
  | .if_ value => ∃ lists, Reads false none value lists ∧ lists ≠ [] ∧
      ∀ list ∈ lists, list.resource = none ∨ list.isFirst = true
  | _ => True

/-- A plain header is satisfied if a list read from it holds, or none has been read. -/
theorem Header.IsPlain.isSatisfied {header : Header} (h : header.IsPlain)
    (hread : header.parse = [] ∨ ∃ cond ∈ header.parse, cond.Holds env (resource :: resources)) :
    header.IsSatisfied env resource resources := by
  cases header with
  | if_ value =>
    obtain ⟨lists, hlists, hne, hfirst⟩ := h
    have hparse : (Header.if_ value).parse = lists.map TaggedList.meant := by
      refine (parseIf_of_reads hlists).trans (map_congr_left fun list hlist => ?_)
      rw [TaggedList.read, TaggedList.meant]
      rcases hfirst list hlist with hnone | htrue
      · rw [hnone, ite_self]
      · rw [if_pos htrue]
    rw [hparse] at hread
    obtain ⟨cond, hcond, hholds⟩ := hread.resolve_left (by simpa using hne)
    obtain ⟨list, hlist, rfl⟩ := mem_map.mp hcond
    exact ⟨lists, hlists, list, hlist, hholds⟩
  | ifMatch value | ifNoneMatch value =>
    -- the lists of a header other than `If` are what it asks for
    rw [Header.parse, parseIfMatch] at hread
    rw [Header.IsSatisfied]
    by_cases hany : value = ['*'] <;> simpa [hany, If.Holds, If.target, holds, etags] using hread

/-- A request that is let through satisfies its headers, if they are plain and either all or none of
    them are satisfied. -/
theorem validateHeaders_satisfied {baseUri : Text} {overwriteFail : Bool} {headers : List Header}
    {method : DavMethod} (hplain : ∀ header ∈ headers, header.IsPlain)
    (hagree : ∀ header ∈ headers, header.IsSatisfied env resource resources →
      ∀ other ∈ headers, other.IsSatisfied env resource resources)
    (h : validateHeaders env (.ofHeaders baseUri overwriteFail headers) (resource :: resources)
      method = .ok ()) :
    ∀ header ∈ headers, header.IsSatisfied env resource resources := by
  rcases exists_holds_of_validateHeaders h with hnone | ⟨cond, hcond, hholds⟩
  · intro header hheader
    refine (hplain header hheader).isSatisfied
      (.inl (eq_nil_iff_forall_not_mem.mpr fun cond hcond => ?_))
    refine not_mem_nil (a := cond) ?_
    rw [← hnone, mem_ofHeaders_iff]
    exact ⟨header, hheader, hcond⟩
  · obtain ⟨header, hheader, hcond⟩ := mem_ofHeaders_iff.mp hcond
    exact hagree header hheader ((hplain header hheader).isSatisfied (.inr ⟨cond, hcond, hholds⟩))

end Requests

/-! ## A draft that is locked -/

/-- A file of a user, which has the tag `"8"` and is locked. -/
def draft : Env Unit where
  now := 0
  validateUri _ := none
  hasAccess _ _ := true
  documentAt _ _ _ := some 5
  etagOf _ _ _ := some "\"8\"".toList
  syncTokenOf _ _ := []
  lockData _ _ := some ⟨[("draft".toList, ⟨7, 1, 100, false, true, none⟩)]⟩

/-- The text of the token of the lock. -/
def ifLocked : Text := '(' :: ('<' :: "urn:stalwart:davlock:7".toList ++ ['>']) ++ [')']

theorem reads_ifLocked : Reads false none ifLocked
    [⟨none, false, [.stateToken false "urn:stalwart:davlock:7".toList]⟩] :=
  .list (.token (by decide +kernel) .nil) (cons_ne_nil _ _) .nil

/-- The headers of a user whose copy has the tag `"8"` and who has the token of the lock. -/
def draftHeaders : List Header := [.ifMatch "\"8\"".toList, .if_ ifLocked]

theorem validateHeaders_satisfied_draft :
    validateHeaders draft (.ofHeaders "/dav/file/user".toList false draftHeaders)
        [.new 1 .fileNode "draft".toList] .put = .ok () ∧
      ∀ header ∈ draftHeaders, header.IsSatisfied draft (.new 1 .fileNode "draft".toList) [] := by
  have hboth : ∀ header ∈ draftHeaders,
      header.IsSatisfied draft (.new 1 .fileNode "draft".toList) [] := by
    rw [draftHeaders, forall_mem_cons, forall_mem_singleton]
    refine ⟨?_, _, reads_ifLocked, _, mem_singleton_self _, ?_⟩
    · rw [Header.IsSatisfied]
      decide +kernel
    · rw [If.Holds]
      decide +kernel
  have hplain : ∀ header ∈ draftHeaders, header.IsPlain := by
    rw [draftHeaders, forall_mem_cons, forall_mem_singleton]
    exact ⟨trivial, _, reads_ifLocked, cons_ne_nil _ _, by simp⟩
  have hput : validateHeaders draft (.ofHeaders "/dav/file/user".toList false draftHeaders)
      [.new 1 .fileNode "draft".toList] .put = .ok () := by
    decide +kernel
  exact ⟨hput, validateHeaders_satisfied hplain (fun _ _ _ => hboth) hput⟩

/-- The user, whose copy has the tag `"7"`, writes it with the token of the lock and is let through:
    a list of the `If` header holds. So is one whose `If` header has no end. -/
theorem validateHeaders_draft :
    (validateHeaders draft (.ofHeaders "/dav/file/user".toList false
        [.ifMatch "\"7\"".toList, .if_ "(<urn:stalwart:davlock:7>)".toList])
        [.new 1 .fileNode "draft".toList] .put = .ok () ∧
      ¬(Header.ifMatch "\"7\"".toList).IsSatisfied draft (.new 1 .fileNode "draft".toList) []) ∧
    validateHeaders draft (.ofHeaders "/dav/file/user".toList false
        [.if_ "([\"7\"]".toList]) [.new 1 .fileNode "notes".toList] .put = .ok () ∧
      ¬(Header.if_ "([\"7\"]".toList).IsSatisfied draft (.new 1 .fileNode "notes".toList) [] := by
  refine ⟨⟨by decide +kernel, ?_⟩, by decide +kernel, ?_⟩
  · rw [Header.IsSatisfied]
    decide +kernel
  · rintro ⟨lists, hlists, list, hlist, -⟩
    have hparse := parseIf_of_reads hlists
    have hnil : parseIf "([\"7\"]".toList = [] := by decide +kernel
    rw [hnil, eq_comm, map_eq_nil_iff] at hparse
    rw [hparse] at hlist
    exact absurd hlist not_mem_nil

end Inworkspace.Dav
