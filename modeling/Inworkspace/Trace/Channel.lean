import Mathlib.Data.List.Infix

/-!
# The channel of the trace events

A thread gives its events to the collector through a ring buffer of its own. An event that finds
the buffer full is put on a list of the sender, and each `send` first pushes what is on that list,
the last event first, before it pushes its own event. The collector reads the buffer meanwhile
(`try_recv`), also between two pushes of one `send`.

The events are received in the order they were sent as long as a `send` that finds an event on the
list finds room for it in the buffer (`received_sublist_accepted`). When two events have to wait,
the second one overtakes the first (`not_received_sublist_accepted`).
-/

namespace Inworkspace.Trace

open List

/-- `CHANNEL_SIZE`. -/
def channelSize : ℕ := 10240

/-- A `send` drains the list of the sender, then pushes its event. -/
inductive Phase (Event : Type*) where
  | idle
  | draining (event : Event)
  | pushing (event : Event)
  deriving DecidableEq

/-- The `Sender` and the `Receiver` of a thread, with the events accepted and received. `overflow`
    has its last event first. -/
structure Channel (Event : Type*) where
  ring : List Event := []
  overflow : List Event := []
  phase : Phase Event := .idle
  accepted : List Event := []
  received : List Event := []
  deriving DecidableEq

/-- The thread calls `send`, goes on with it up to the next push, or the collector calls
    `try_recv`. -/
inductive Step (Event : Type*) where
  | send (event : Event)
  | advance
  | tryRecv
  deriving DecidableEq

namespace Channel

variable {Event : Type*} {self : Channel Event}

/-- `Producer::push`, which fails if the buffer is full. -/
def push (self : Channel Event) (event : Event) : Option (Channel Event) :=
  if self.ring.length < channelSize then some { self with ring := self.ring ++ [event] } else none

/-- `Sender::send`, up to the next push. -/
def advance (self : Channel Event) : Channel Event :=
  match self.phase, self.overflow with
  | .idle, _ => self
  | .draining event, [] => { self with phase := .pushing event }
  -- the overflow list is popped from its end
  | .draining event, last :: overflow =>
    match self.push last with
    | some self => { self with overflow }
    | none => { self with phase := .pushing event }
  | .pushing event, overflow =>
    match self.push event with
    | some self => { self with phase := .idle, accepted := self.accepted ++ [event] }
    | none =>
      if overflow.length ≤ channelSize * 2 then
        { self with
          overflow := event :: overflow, phase := .idle, accepted := self.accepted ++ [event] }
      else { self with phase := .idle }

/-- One step of the thread, which calls `send` when the last call has returned, or of the
    collector. -/
def step (self : Channel Event) : Step Event → Channel Event
  | .send event => if self.phase matches .idle then { self with phase := .draining event } else self
  | .advance => self.advance
  | .tryRecv =>
    match self.ring with
    | [] => self
    | event :: ring => { self with ring, received := self.received ++ [event] }

/-- A run, from when the thread makes the channel. -/
def run (steps : List (Step Event)) : Channel Event := steps.foldl step {}

/-- A `send` that is about to push an event that had to wait has room for it. -/
def HasRoom (self : Channel Event) : Prop :=
  ∀ event, self.phase = .draining event → self.overflow ≠ [] → self.ring.length < channelSize

/-- Nothing is lost or overtaken, and no event waits while another is pushed. -/
structure InOrder (channel : Channel Event) : Prop where
  order : channel.received ++ channel.ring ++ channel.overflow = channel.accepted
  waiting : channel.overflow.length ≤ 1
  pushing : ∀ event, channel.phase = .pushing event → channel.overflow = []

/-- An event that waits goes in before those that come later. -/
theorem InOrder.advance (h : self.InOrder) (hroom : self.HasRoom) : self.advance.InOrder := by
  obtain ⟨ring, overflow, phase, accepted, received⟩ := self
  obtain ⟨horder, hwaiting, hpushing⟩ := h
  rcases phase with _ | event | event
  · exact ⟨horder, hwaiting, nofun⟩
  · rcases overflow with _ | ⟨last, overflow⟩
    · exact ⟨horder, hwaiting, fun _ _ => rfl⟩
    have hlt : ring.length < channelSize := hroom event rfl (cons_ne_nil _ _)
    obtain rfl : overflow = [] := by simpa using hwaiting
    simp only [Channel.advance, push, if_pos hlt]
    exact ⟨by simpa using horder, Nat.zero_le 1, nofun⟩
  · obtain rfl : overflow = [] := hpushing event rfl
    obtain rfl : received ++ ring = accepted := by simpa using horder
    by_cases hlt : ring.length < channelSize
    · simp only [Channel.advance, push, if_pos hlt]
      exact ⟨by simp, Nat.zero_le 1, nofun⟩
    · simp only [Channel.advance, push, if_neg hlt]
      exact ⟨rfl, Nat.le_refl 1, nofun⟩

/-- With room, each step keeps the events in order. -/
theorem InOrder.step (h : self.InOrder) (hroom : self.HasRoom) (step : Step Event) :
    (self.step step).InOrder := by
  cases step with
  | send event =>
    rw [Channel.step]
    split
    · exact ⟨h.order, h.waiting, nofun⟩
    · exact h
  | advance => exact h.advance hroom
  | tryRecv =>
    rw [Channel.step]
    split
    · exact h
    · rename_i event ring hring
      exact ⟨by simpa [hring] using h.order, h.waiting, h.pushing⟩

/-- Events are received in the order in which they were accepted, if those that had to wait find
    room. -/
theorem received_sublist_accepted (steps : List (Step Event))
    (h : ∀ before, before <+: steps → (run before).HasRoom) :
    (run steps).received <+ (run steps).accepted := by
  have horder : (run steps).InOrder := by
    induction steps using reverseRecOn with
    | nil => exact ⟨rfl, Nat.zero_le 1, nofun⟩
    | append_singleton steps step ih =>
      rw [run, foldl_append]
      exact (ih fun before hbefore => h before (hbefore.trans (prefix_append _ _))).step
        (h steps (prefix_append _ _)) step
  rw [← horder.order, append_assoc]
  exact sublist_append_left _ _

/-- The calls of a thread that sends some events while nothing is received. -/
def calls (events : List Event) : List (Step Event) :=
  events.flatMap fun event => [.send event, .advance, .advance]

theorem foldl_call {accepted : List Event} (h : accepted.length < channelSize) (event : Event) :
    [Step.send event, .advance, .advance].foldl step { ring := accepted, accepted } =
      { ring := accepted ++ [event], accepted := accepted ++ [event] } := by
  simp [step, Channel.advance, push, h]

theorem foldl_calls (events accepted : List Event) (h : (accepted ++ events).length ≤ channelSize) :
    (calls events).foldl step { ring := accepted, accepted } =
      { ring := accepted ++ events, accepted := accepted ++ events } := by
  induction events generalizing accepted with
  | nil => simp [calls]
  | cons event events ih =>
    have hlt : accepted.length < channelSize := by
      simp only [length_append, length_cons] at h
      omega
    have hrest := ih (accepted ++ [event]) (by simpa using h)
    rw [append_assoc, singleton_append] at hrest
    rw [calls, flatMap_cons, foldl_append, foldl_call hlt, ← calls, hrest]

theorem forall_prefix_append {P : Channel Event → Prop} {first rest : List (Step Event)}
    (hfirst : ∀ before, before <+: first → P (before.foldl step self))
    (hrest : ∀ before, before <+: rest → P (before.foldl step (first.foldl step self))) :
    ∀ before, before <+: first ++ rest → P (before.foldl step self) := by
  rintro before ⟨after, h⟩
  rcases append_eq_append_iff.mp h with ⟨l, rfl, -⟩ | ⟨l, rfl, hl⟩
  · exact hfirst before (prefix_append _ _)
  · rw [foldl_append]
    exact hrest l ⟨after, hl.symm⟩

/-- Nothing waits while the buffer is not full. -/
theorem hasRoom_calls (events accepted : List Event)
    (h : (accepted ++ events).length ≤ channelSize) :
    ∀ before, before <+: calls events →
      (before.foldl step { ring := accepted, accepted }).HasRoom := by
  induction events generalizing accepted with
  | nil =>
    intro before hbefore
    rw [prefix_nil.mp hbefore]
    exact nofun
  | cons event events ih =>
    have hlt : accepted.length < channelSize := by
      simp only [length_append, length_cons] at h
      omega
    refine forall_prefix_append (fun before hbefore => ?_) ?_
    · simp only [prefix_cons_iff, prefix_nil] at hbefore
      obtain rfl | ⟨_, rfl, rfl | ⟨_, rfl, rfl | ⟨_, rfl, rfl⟩⟩⟩ := hbefore <;>
        simp [HasRoom, step, Channel.advance, push, hlt]
    · rw [foldl_call hlt]
      exact ih (accepted ++ [event]) (by simpa using h)

/-- An event finds the buffer full, two are read, and the next `send` finds room for it. -/
def waiting (one two : Event) : List (Step Event) :=
  [.send one, .advance, .advance, .tryRecv, .tryRecv, .send two, .advance, .advance, .advance]

/-- The event that had to wait keeps its place. -/
theorem received_sublist_accepted_waiting : ∃ steps : List (Step ℕ),
    (run steps).overflow = [] ∧ (run steps).received = [0, 1] ∧
      (run steps).received <+ (run steps).accepted := by
  obtain ⟨ring, hring⟩ : ∃ ring : List ℕ, ring.length + 2 = channelSize :=
    ⟨replicate 10238 2, congrArg (· + 2) length_replicate⟩
  have hfull := foldl_calls (0 :: 1 :: ring) [] (by simp [← hring])
  rw [nil_append] at hfull
  have hroom : ∀ before, before <+: calls (0 :: 1 :: ring) ++ waiting 3 4 →
      (run before).HasRoom := by
    refine forall_prefix_append (hasRoom_calls _ [] (by simp [← hring])) ?_
    rw [hfull]
    intro before hbefore
    rw [← mem_inits] at hbefore
    simp only [waiting, inits, map, mem_cons, not_mem_nil, or_false] at hbefore
    rcases hbefore with rfl | rfl | rfl | rfl | rfl | rfl | rfl | rfl | rfl | rfl <;>
      simp [HasRoom, step, Channel.advance, push, ← hring]
  have hrun : run (calls (0 :: 1 :: ring) ++ waiting 3 4) =
      { ring := ring ++ [3, 4], accepted := 0 :: 1 :: ring ++ [3, 4], received := [0, 1] } := by
    rw [run, foldl_append, hfull]
    simp [waiting, step, Channel.advance, push, ← hring]
  exact ⟨_, by rw [hrun], by rw [hrun], received_sublist_accepted _ hroom⟩

/-- What was accepted has been received, is in the buffer or waits, each event once, and only so
    many do. -/
structure Conserves (channel : Channel Event) : Prop where
  perm : (channel.received ++ channel.ring ++ channel.overflow).Perm channel.accepted
  ring : channel.ring.length ≤ channelSize
  overflow : channel.overflow.length ≤ channelSize * 2 + 1

open Classical in
theorem Conserves.step (h : self.Conserves) (step : Step Event) : (self.step step).Conserves := by
  obtain ⟨ring, overflow, phase, accepted, received⟩ := self
  obtain ⟨hperm, hring, hoverflow⟩ := h
  have hcount := perm_iff_count.mp hperm
  -- each event is counted
  refine ⟨perm_iff_count.mpr fun event => ?_, ?_, ?_⟩ <;> cases step <;> cases phase <;>
    grind [Channel.step, Channel.advance, push]

/-- In every run, no accepted event is lost or received twice, and nothing else is received. -/
theorem conserves_run (steps : List (Step Event)) : (run steps).Conserves :=
  foldlRecOn _ _ ⟨.nil, by simp, by simp⟩ fun _ h step _ => h.step step

/-- Receiving as often as there are events empties the ring. -/
theorem foldl_tryRecv {n : ℕ} (h : self.ring.length = n) :
    (replicate n .tryRecv).foldl step self =
      { self with ring := [], received := self.received ++ self.ring } := by
  obtain ⟨ring, overflow, phase, accepted, received⟩ := self
  induction n generalizing ring received with
  | zero =>
    obtain rfl := length_eq_zero_iff.mp h
    simp
  | succ n ih =>
    obtain ⟨event, ring, rfl⟩ := exists_cons_of_length_eq_add_one h
    refine (ih ring _ (by simpa using h)).trans ?_
    simp

/-- Two events find the buffer full, two are read, and a third one is sent. -/
def overtaking (one two three : Event) : List (Step Event) :=
  calls [one, two] ++ [.tryRecv, .tryRecv, .send three, .advance, .advance]

theorem foldl_overtaking {ring : List Event} (h : ring.length + 2 = channelSize)
    (first second one two three : Event) :
    (overtaking one two three).foldl step
        { ring := first :: second :: ring, accepted := first :: second :: ring } =
      { ring := ring ++ [two, one], phase := .draining three
        accepted := first :: second :: ring ++ [one, two], received := [first, second] } := by
  have hle : 1 ≤ (ring.length + 2) * 2 := by omega
  simp [overtaking, calls, step, Channel.advance, push, ← h, hle]

/-- Two events find the buffer full; the next `send` pushes the second first. -/
theorem not_received_sublist_accepted :
    ¬ ∀ steps : List (Step ℕ), (run steps).received <+ (run steps).accepted := by
  intro h
  obtain ⟨ring, hring⟩ : ∃ ring : List ℕ, ring.length + 2 = channelSize :=
    ⟨replicate 10238 0, congrArg (· + 2) length_replicate⟩
  have hrun := h (calls (0 :: 0 :: ring) ++ (overtaking 1 2 3 ++ replicate channelSize .tryRecv))
  rw [run, foldl_append, foldl_calls _ [] (by simp [← hring]), nil_append,
    foldl_append, foldl_overtaking hring, foldl_tryRecv (by simp [← hring])] at hrun
  have heq := hrun.eq_of_length (by simp)
  simp at heq

end Channel

end Inworkspace.Trace
