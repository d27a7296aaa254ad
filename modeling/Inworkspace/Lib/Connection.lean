import Mathlib.Logic.Basic

/-!
# Connections that are secured while they are open

A server keeps a session for a connection and reads from it until it closes the
connection or agrees to secure it (`serve`). In the latter case the session, as
it is converted for the secured connection, goes on with what is read from
there (`Protocol`).

* `ConnM`: the computations of a session, which change it, ask the rest of the server,
  leave events and may fail;
* `Keeps`: what a computation does not change about the session unless it leaves a loud
  event, with a rule for each kind of step; `Ensures` says something about its value too;
* `Protocol.Forgets`: what happens on the secured connection depends on what was read
  before only as far as the client is authenticated. It is so if the converted
  session is determined by the authentication (`Protocol.forgets_of_keeps`), or up to
  a relation under which connections are served alike (`Protocol.forgets_of_related`).
-/

namespace Inworkspace.Lib.Connection

/-! ## The steps of a session -/

variable (ε S W E α : Type)

/-- The value of a computation, the session and the rest of the server after it, and the events it
    leaves. -/
structure Result where
  value : Except ε α
  session : S
  world : W
  events : List E

/-- Computations of a session `S`, with the rest `W` of the server and events `E`. What a failed one
    has done stays done. -/
def ConnM : Type :=
  S → W → Result ε S W E α

section Steps

variable {ε} {S} {W} {E} {α} {β : Type}

namespace ConnM

protected def pure (a : α) : ConnM ε S W E α := fun s w => ⟨.ok a, s, w, []⟩

protected def bind (x : ConnM ε S W E α) (f : α → ConnM ε S W E β) :
    ConnM ε S W E β := fun s w =>
  let r := x s w
  match r.value with
  | .error e => ⟨.error e, r.session, r.world, r.events⟩
  | .ok a =>
    let r' := f a r.session r.world
    { r' with events := r.events ++ r'.events }

instance : Monad (ConnM ε S W E) where
  pure := ConnM.pure
  bind := ConnM.bind

instance : MonadExcept ε (ConnM ε S W E) where
  throw e := fun s w => ⟨.error e, s, w, []⟩
  tryCatch x handle := fun s w =>
    let r := x s w
    match r.value with
    | .ok _ => r
    | .error e =>
      let r' := handle e r.session r.world
      { r' with events := r.events ++ r'.events }

end ConnM

def session : ConnM ε S W E S := fun s w => ⟨.ok s, s, w, []⟩

/-- Change the session. -/
def update (f : S → S) : ConnM ε S W E Unit :=
  fun s w => ⟨.ok (), f s, w, []⟩

/-- Change the session, and return something about it. -/
def change (f : S → α × S) : ConnM ε S W E α :=
  fun s w => ⟨.ok (f s).1, (f s).2, w, []⟩

/-- Let the rest of the server answer. -/
def ask (f : W → α × W) : ConnM ε S W E α :=
  fun s w => ⟨.ok (f w).1, s, (f w).2, []⟩

/-- Leave an event. -/
def emit (e : E) : ConnM ε S W E Unit := fun s w => ⟨.ok (), s, w, [e]⟩

/-- Leave an event when a computation has ended, also if it has failed. -/
def logged (e : E) (x : ConnM ε S W E α) : ConnM ε S W E α :=
  fun s w => { x s w with events := (x s w).events ++ [e] }

/-- The result of a computation, failed or not. -/
def attempt {ε' : Type} (x : ConnM ε S W E α) : ConnM ε' S W E (Except ε α) := fun s w =>
  let r := x s w
  ⟨.ok r.value, r.session, r.world, r.events⟩

/-! ## Invariants -/

/-- `P` holds of the session after the computation if it did before, unless this leaves one of the
    `Loud` events. -/
def Keeps (Loud : E → Prop) (P : S → Prop) (x : ConnM ε S W E α) : Prop :=
  ∀ s w, P s → (∀ e ∈ (x s w).events, ¬ Loud e) → P (x s w).session

/-- As `Keeps`, and the value of the computation, if it has one, satisfies `Q`. -/
def Ensures (Loud : E → Prop) (P : S → Prop) (Q : α → Prop) (x : ConnM ε S W E α) : Prop :=
  ∀ s w, P s → (∀ e ∈ (x s w).events, ¬ Loud e) →
    P (x s w).session ∧ ∀ a, (x s w).value = .ok a → Q a

section Rules

variable {Loud : E → Prop} {P : S → Prop} {Q : α → Prop} {R : β → Prop}
  {x : ConnM ε S W E α} {f : α → ConnM ε S W E β}

namespace Ensures

theorem of_keeps (hx : Keeps Loud P x) (hQ : ∀ a, Q a) :
    Ensures Loud P Q x := fun s w hs hquiet => ⟨hx s w hs hquiet, fun a _ => hQ a⟩

theorem pure {a : α} (ha : Q a) : Ensures Loud P Q (pure a : ConnM ε S W E α) := by
  refine fun _ _ hs _ => ⟨hs, ?_⟩
  rintro _ ⟨⟩
  exact ha

theorem throw (e : ε) : Ensures Loud P Q (throw e : ConnM ε S W E α) :=
  fun _ _ hs _ => ⟨hs, nofun⟩

theorem bind (hx : Ensures Loud P Q x) (hf : ∀ a, Q a → Ensures Loud P R (f a)) :
    Ensures Loud P R (x >>= f) := by
  intro s w hs hquiet
  change P (ConnM.bind x f s w).session ∧ ∀ b, (ConnM.bind x f s w).value = .ok b → R b
  change ∀ e ∈ (ConnM.bind x f s w).events, ¬ Loud e at hquiet
  rw [ConnM.bind] at hquiet ⊢
  have hxs := hx s w hs
  cases hv : (x s w).value with
  | error e =>
    simp only [hv] at hquiet ⊢
    exact ⟨(hxs hquiet).1, nofun⟩
  | ok a =>
    simp only [hv, List.mem_append] at hquiet ⊢
    obtain ⟨hP, hQ⟩ := hxs fun e he => hquiet e (.inl he)
    exact hf a (hQ a hv) _ _ hP fun e he => hquiet e (.inr he)

/-- A first computation about whose value nothing is needed. -/
theorem keeps_bind (hx : Keeps Loud P x) (hf : ∀ a, Ensures Loud P R (f a)) :
    Ensures Loud P R (x >>= f) :=
  bind (of_keeps hx fun _ => trivial) fun a _ => hf a

theorem session_bind {f : S → ConnM ε S W E β}
    (hf : ∀ s, P s → Ensures Loud P R (f s)) : Ensures Loud P R (session >>= f) :=
  fun s w hs hquiet => hf s hs s w hs hquiet

theorem logged (hx : Ensures Loud P Q x) (e : E) : Ensures Loud P Q (logged e x) :=
  fun s w hs hquiet => hx s w hs fun e' he' => hquiet e' (List.mem_append_left _ he')

/-- A loud event excuses what the computation has done and returned. -/
theorem logged_of_loud {e : E} (he : Loud e) (x : ConnM ε S W E α) :
    Ensures Loud P Q (Connection.logged e x) := fun _ _ _ hquiet =>
  absurd he (hquiet e (List.mem_append_right _ (List.mem_singleton_self e)))

theorem keeps (hx : Ensures Loud P Q x) : Keeps Loud P x :=
  fun s w hs hquiet => (hx s w hs hquiet).1

end Ensures

namespace Keeps

theorem pure (a : α) : Keeps Loud P (pure a : ConnM ε S W E α) := fun _ _ hs _ => hs

theorem throw (e : ε) : Keeps Loud P (throw e : ConnM ε S W E α) := fun _ _ hs _ => hs

theorem bind (hx : Keeps Loud P x) (hf : ∀ a, Keeps Loud P (f a)) : Keeps Loud P (x >>= f) :=
  Ensures.keeps (.keeps_bind hx fun a => .of_keeps (hf a) fun _ => trivial)

theorem session : Keeps Loud P (session : ConnM ε S W E S) := fun _ _ hs _ => hs

/-- What follows a look at the session may rely on the invariant. -/
theorem session_bind {f : S → ConnM ε S W E β}
    (hf : ∀ s, P s → Keeps Loud P (f s)) : Keeps Loud P (Connection.session >>= f) :=
  fun s w hs hquiet => hf s hs s w hs hquiet

theorem update {f : S → S} (hf : ∀ s, P s → P (f s)) :
    Keeps Loud P (update f : ConnM ε S W E Unit) := fun s _ hs _ => hf s hs

theorem change {f : S → α × S} (hf : ∀ s, P s → P (f s).2) :
    Keeps Loud P (change f : ConnM ε S W E α) := fun s _ hs _ => hf s hs

theorem ask (f : W → α × W) : Keeps Loud P (ask f : ConnM ε S W E α) :=
  fun _ _ hs _ => hs

theorem emit (e : E) : Keeps Loud P (emit e : ConnM ε S W E Unit) :=
  fun _ _ hs _ => hs

theorem ofExcept (x : Except ε α) : Keeps Loud P (ofExcept x : ConnM ε S W E α) := by
  cases x with
  | ok a => exact pure a
  | error e => exact throw e

theorem logged (hx : Keeps Loud P x) (e : E) : Keeps Loud P (logged e x) :=
  Ensures.keeps (.logged (.of_keeps hx fun _ => trivial) e)

/-- A loud event excuses what the computation has done. -/
theorem logged_of_loud {e : E} (he : Loud e) (x : ConnM ε S W E α) :
    Keeps Loud P (Connection.logged e x) :=
  Ensures.keeps (Q := fun _ => True) (.logged_of_loud he x)

theorem attempt {ε' : Type} (hx : Keeps Loud P x) :
    Keeps Loud P (attempt x : ConnM ε' S W E (Except ε α)) := hx

end Keeps

end Rules

end Steps

/-! ## Serving a connection -/

/-- What becomes of a connection after a read. -/
inductive Outcome where
  | goOn
  | upgrade
  | close
  deriving DecidableEq

/-- What a read, or several, have led to. -/
structure Served (S W E : Type) where
  outcome : Outcome
  session : S
  world : W
  events : List E

/-- Handle a read, and close the connection if this fails. -/
def orClose {ε S W E : Type} (x : ConnM ε S W E Outcome) (s : S) (w : W) : Served S W E :=
  let r := x s w
  let outcome := match r.value with
    | .ok outcome => outcome
    | .error _ => .close
  ⟨outcome, r.session, r.world, r.events⟩

section Serve

variable {S} {W} {E} {Read : Type}
  {ingest : Read → S → W → Served S W E}

/-- The loop over what is read, until the connection is closed or secured. -/
def serve (ingest : Read → S → W → Served S W E) : List Read → S → W → Served S W E
  | [], s, w => ⟨.goOn, s, w, []⟩
  | read :: reads, s, w =>
    let r := ingest read s w
    match r.outcome with
    | .goOn =>
      let r' := serve ingest reads r.session r.world
      { r' with events := r.events ++ r'.events }
    | _ => r

/-- What every read keeps, unless there is a loud event, holds when the loop ends without one, and
    so does what every read that ends with the upgrade establishes. -/
theorem serve_keeps {Loud : E → Prop} {P Q : S → Prop}
    (hP : ∀ read s w, P s → (∀ e ∈ (ingest read s w).events, ¬ Loud e) →
      P (ingest read s w).session ∧
        ((ingest read s w).outcome = .upgrade → Q (ingest read s w).session))
    (reads : List Read) {s : S} {w : W} (hs : P s)
    (hquiet : ∀ e ∈ (serve ingest reads s w).events, ¬ Loud e) :
    P (serve ingest reads s w).session ∧
      ((serve ingest reads s w).outcome = .upgrade → Q (serve ingest reads s w).session) := by
  induction reads generalizing s w with
  | nil => exact ⟨hs, nofun⟩
  | cons read reads ih =>
    have hread := hP read s w hs
    rw [serve] at hquiet ⊢
    cases ho : (ingest read s w).outcome with
    | goOn =>
      simp only [ho, List.mem_append] at hquiet ⊢
      exact ih (hread fun e he => hquiet e (.inl he)).1 fun e he => hquiet e (.inr he)
    | upgrade | close =>
      simp only [ho] at hquiet hread ⊢
      exact hread hquiet

/-- What has happened on a connection, apart from its session. -/
def Served.observed (r : Served S W E) : Outcome × List E × W :=
  (r.outcome, r.events, r.world)

/-- Two connections are served alike if a relation between their sessions, for what is still to be
    read, survives every read. -/
theorem serve_congr {R : List Read → S → S → Prop} (hR : ∀ read reads s t w, R (read :: reads) s t →
      (ingest read s w).observed = (ingest read t w).observed ∧
        R reads (ingest read s w).session (ingest read t w).session)
    (reads : List Read) {s t : S} (w : W) (hst : R reads s t) :
    (serve ingest reads s w).observed = (serve ingest reads t w).observed := by
  induction reads generalizing s t w with
  | nil => rfl
  | cons read reads ih =>
    obtain ⟨hobs, hrel⟩ := hR read reads s t w hst
    simp only [Served.observed, Prod.mk.injEq] at hobs
    obtain ⟨houtcome, hevents, hworld⟩ := hobs
    have hrest := ih (ingest read s w).world hrel
    simp only [Served.observed, Prod.mk.injEq] at hrest ⊢
    rw [serve, serve, ← houtcome, ← hevents, ← hworld]
    cases (ingest read s w).outcome with
    | goOn => exact ⟨hrest.1, congrArg ((ingest read s w).events ++ ·) hrest.2.1, hrest.2.2⟩
    | upgrade | close => exact ⟨houtcome, hevents, hworld⟩

end Serve

/-! ## Securing a connection -/

/-- A protocol whose connections can be secured: how a read is handled, the session of a new
    connection and of a secured one, and as whom a session is authenticated. -/
structure Protocol (Read S W E Auth : Type) where
  ingest : Read → S → W → Served S W E
  initial : S
  intoTls : S → S
  auth : S → Auth

namespace Protocol

variable {S} {W} {E} {Read Auth : Type} (p : Protocol Read S W E Auth)

/-- After the reads the server secures the connection, with this session and these events. -/
def Upgrades (reads : List Read) (s : S) (events : List E) : Prop :=
  ∃ w w', serve p.ingest reads p.initial w = ⟨.upgrade, s, w', events⟩

variable {reads : List Read}

variable {p} in
theorem Upgrades.of_outcome {w : W} (h : (serve p.ingest reads p.initial w).outcome = .upgrade) :
    p.Upgrades reads (serve p.ingest reads p.initial w).session
      (serve p.ingest reads p.initial w).events :=
  ⟨w, _, by rw [← h]⟩

/-- What happens on the secured connection: what becomes of it, what is done, and what changes in
    the rest of the server. -/
def secured (s : S) (w : W) (reads : List Read) : Outcome × List E × W :=
  (serve p.ingest reads (p.intoTls s) w).observed

/-- Harmless clear text has led to the session, with which the connection is secured. -/
def LeavesAfter (Harmless : List E → S → Prop) (s : S) : Prop :=
  ∃ reads events, p.Upgrades reads s events ∧ Harmless events s

/-- Two clients that are authenticated alike are served alike on their secured connections, whatever
    `Harmless` text they sent before, if what they send is `Within` the limits of their sessions. -/
def Forgets (Harmless : List E → S → Prop) (Within : S → List Read → Prop) : Prop :=
  ∀ ⦃s₁ s₂⦄, p.LeavesAfter Harmless s₁ → p.LeavesAfter Harmless s₂ → p.auth s₁ = p.auth s₂ →
    ∀ w reads, Within s₁ reads → Within s₂ reads → p.secured s₁ w reads = p.secured s₂ w reads

variable {p}

/-- What every read keeps, unless there is a loud event, holds when the connection is secured, and
    so does what every read that ends with the upgrade establishes. -/
theorem Upgrades.keeps {Loud : E → Prop} {P Q : S → Prop} (hinit : P p.initial)
    (hP : ∀ read s w, P s → (∀ e ∈ (p.ingest read s w).events, ¬ Loud e) →
      P (p.ingest read s w).session ∧
        ((p.ingest read s w).outcome = .upgrade → Q (p.ingest read s w).session))
    {s : S} {events : List E} (h : p.Upgrades reads s events)
    (hquiet : ∀ e ∈ events, ¬ Loud e) : P s ∧ Q s := by
  obtain ⟨w, w', h⟩ := h
  have hend := serve_keeps hP reads (w := w) hinit
  rw [h] at hend
  exact (hend hquiet).imp_right fun hQ => hQ rfl

variable {Within : S → List Read → Prop}

/-- Clear text is forgotten if it leaves related sessions, which are served alike. -/
theorem forgets_of_related {Harmless : List E → S → Prop} {R : List Read → S → S → Prop}
    (hstep : ∀ read reads s t w, R (read :: reads) s t →
      (p.ingest read s w).observed = (p.ingest read t w).observed ∧
        R reads (p.ingest read s w).session (p.ingest read t w).session)
    (hstart : ∀ {s₁ s₂}, p.LeavesAfter Harmless s₁ → p.LeavesAfter Harmless s₂ →
      p.auth s₁ = p.auth s₂ → ∀ reads, Within s₁ reads → Within s₂ reads →
      R reads (p.intoTls s₁) (p.intoTls s₂)) :
    p.Forgets Harmless Within := by
  intro s₁ s₂ hs₁ hs₂ hauth w reads hw₁ hw₂
  exact serve_congr hstep reads w (hstart hs₁ hs₂ hauth reads hw₁ hw₂)

/-- Clear text without loud events is forgotten if, by what every read keeps, it leaves only the
    authentication. -/
theorem forgets_of_keeps {Loud : E → Prop} {P C : S → Prop} (hinit : P p.initial)
    (hkeeps : ∀ read s w, P s → (∀ e ∈ (p.ingest read s w).events, ¬ Loud e) →
      P (p.ingest read s w).session)
    (hP : ∀ {s₁ s₂}, P s₁ → P s₂ → C s₁ → C s₂ → p.auth s₁ = p.auth s₂ →
      p.intoTls s₁ = p.intoTls s₂) :
    p.Forgets (fun events s => C s ∧ ∀ e ∈ events, ¬ Loud e) Within := by
  have hleft {s : S} (h : p.LeavesAfter (fun events s => C s ∧ ∀ e ∈ events, ¬ Loud e) s) :
      P s ∧ C s := by
    obtain ⟨reads, events, hs, hC, hquiet⟩ := h
    exact ⟨(hs.keeps (Q := fun _ => True) hinit (fun read s w hs hquiet =>
      ⟨hkeeps read s w hs hquiet, fun _ => trivial⟩) hquiet).1, hC⟩
  intro s₁ s₂ hs₁ hs₂ hauth w reads _ _
  rw [secured, hP (hleft hs₁).1 (hleft hs₂).1 (hleft hs₁).2 (hleft hs₂).2 hauth, secured]

end Protocol

end Inworkspace.Lib.Connection
