import Mathlib.Logic.Function.Basic
import Zodia.Lib.Run

/-!
# Typing indicators

One user writes to another, whose page of the chat tells (`app/src/stargazer_page.rs`). The first
keystroke after a pause says that writing goes on; a timer, set again by every keystroke, says that
it is over. Both go through the inbox of the one application, a channel and the network events of
the other, where a channel that closes counts as the end of the writing.

## Main definitions

* `TypingChat`, `TypingChat.step` — the entry, the channels, and the label of the page.
* `TypingChat.GivesUpClosed` — a channel is replaced or removed only after its connection is lost.
* `TypingChat.Quiet` — nothing is on its way.

## Main results

* `typing_indicator` — a label that is shown with nothing on its way is true, and while the
  connection holds it follows the writer.
-/

namespace Zodia.App

open Lib

/-! ## The chat -/

/-- One direction of a connection: the indicators on their way, the oldest first, and whether the
listener of the other side still reads. -/
structure TypingPipe where
  flight : List Bool
  closed : Bool
  listening : Bool

/-- The writer's entry and inbox, the connections by number with the one that the writer has
registered, and the reader's side. Among the network events a close event is the `false` that it
comes to; the label is there once the page is built. -/
structure TypingChat where
  isTyping : Bool
  idleTimer : Bool
  inputs : List Bool
  channel : Option ℕ
  pipes : ℕ → Option TypingPipe
  netEvents : List Bool
  pendingTypingUpdates : List Bool
  typingLabel : Option Bool

inductive TypingEvent where
  | changed (empty : Bool)
  | idle
  | setTyping
  | connected (c : ℕ)
  | removed
  | lost (c : ℕ)
  | listen (c : ℕ) (arrived : Bool)
  | handled
  | pageBuilt
  | view

namespace TypingChat

/-- Nobody has written anything, and there is no connection yet. -/
def blank : TypingChat := ⟨false, false, [], none, fun _ => none, [], [], none⟩

variable (s : TypingChat)

/-- The message to the writer's own application. -/
def ask (active : Bool) : TypingChat :=
  { s with isTyping := active, idleTimer := active, inputs := s.inputs ++ [active] }

def setPipe (c : ℕ) (p : TypingPipe) : TypingChat :=
  { s with pipes := Function.update s.pipes c (some p) }

/-- `SetTyping`: a connection that is lost takes nothing more, and nobody is told. -/
def send (active : Bool) : TypingChat :=
  match s.channel with
  | none => s
  | some c =>
    match s.pipes c with
    | none => s
    | some p => if p.closed then s else s.setPipe c { p with flight := p.flight ++ [active] }

/-- The listener ends, and its close event clears the indicator. -/
def hangUp (c : ℕ) (p : TypingPipe) : TypingChat :=
  { s.setPipe c { p with listening := false } with netEvents := s.netEvents ++ [false] }

/-- One round of `spawn_channel_listener`; `arrived` tells whether the next message came through
before the connection was lost. -/
def listen (c : ℕ) (arrived : Bool) : TypingChat :=
  match s.pipes c with
  | none => s
  | some p =>
    if p.listening then
      match p.flight with
      | [] => if p.closed then s.hangUp c p else s
      | active :: rest =>
        if p.closed && !arrived then s.hangUp c p
        else { s.setPipe c { p with flight := rest } with netEvents := s.netEvents ++ [active] }
    else s

def step : TypingEvent → TypingChat
  | .changed empty =>
    if empty then if s.isTyping then s.ask false else { s with idleTimer := false }
    else if s.isTyping then { s with idleTimer := true } else s.ask true
  | .idle => if s.idleTimer then s.ask false else s
  | .setTyping =>
    match s.inputs with
    | [] => s
    | active :: rest => { s with inputs := rest }.send active
  -- every connection has a number of its own
  | .connected c =>
    match s.pipes c with
    | some _ => s
    | none => { s.setPipe c ⟨[], false, true⟩ with channel := some c }
  | .removed => { s with channel := none }
  | .lost c =>
    match s.pipes c with
    | none => s
    | some p => s.setPipe c { p with closed := true }
  | .listen c arrived => s.listen c arrived
  | .handled =>
    match s.netEvents with
    | [] => s
    | active :: rest =>
      { s with netEvents := rest, pendingTypingUpdates := s.pendingTypingUpdates ++ [active] }
  | .pageBuilt => { s with typingLabel := some (s.typingLabel.getD false) }
  -- updates of a page that is not built yet are dropped
  | .view =>
    { s with
      typingLabel := s.pendingTypingUpdates.foldl (fun label active => label.map fun _ => active)
        s.typingLabel
      pendingTypingUpdates := [] }

/-- The registered connection is lost before another one takes its place. -/
def GivesUpClosed : TypingEvent → Prop
  | .connected _ | .removed => ∀ c p, s.channel = some c → s.pipes c = some p → p.closed = true
  | _ => True

/-- Nothing is on its way, and no listener of a lost connection is still there. -/
structure Quiet : Prop where
  inputs : s.inputs = []
  netEvents : s.netEvents = []
  pending : s.pendingTypingUpdates = []
  flight : ∀ c p, s.pipes c = some p → p.closed = false → p.flight = []
  closed : ∀ c p, s.pipes c = some p → p.closed = true → p.listening = false

/-! ## What every run keeps -/

/-- What the label shows once everything that has arrived is handled. -/
def outcome : Bool :=
  (s.pendingTypingUpdates ++ s.netEvents).getLast?.getD (s.typingLabel.getD false)

structure Sound : Prop where
  timer : s.idleTimer = s.isTyping
  asked : ∀ active ∈ s.inputs.getLast?, active = s.isTyping
  registered : ∀ c p, s.pipes c = some p → p.closed = false → s.channel = some c
  sent : ∀ c p, s.pipes c = some p → p.closed = false →
    ∀ active ∈ (p.flight ++ s.inputs).getLast?, active = s.isTyping
  /-- Whoever is taken to write does so, or is contradicted by what is on its way. -/
  shown : s.outcome = true → ∃ c p, s.pipes c = some p ∧ p.listening = true ∧
    (p.closed = false → (p.flight ++ s.inputs).getLast?.getD true = s.isTyping)

variable {s}

theorem pipes_setPipe_self (c : ℕ) (p : TypingPipe) : (s.setPipe c p).pipes c = some p :=
  Function.update_self ..

theorem pipes_setPipe_of_ne {c c' : ℕ} (ne : c' ≠ c) (p : TypingPipe) :
    (s.setPipe c p).pipes c' = s.pipes c' := Function.update_of_ne ne ..

/-- A fact about every pipe, after one of them was set. -/
theorem forall_pipes_setPipe {P : ℕ → TypingPipe → Prop} {c : ℕ} {p : TypingPipe} (new : P c p)
    (old : ∀ c' p', c' ≠ c → s.pipes c' = some p' → P c' p') (c' : ℕ) (p' : TypingPipe)
    (there : (s.setPipe c p).pipes c' = some p') : P c' p' := by
  by_cases same : c' = c
  · subst same
    rw [pipes_setPipe_self] at there
    exact Option.some.inj there ▸ new
  · rw [pipes_setPipe_of_ne same] at there
    exact old c' p' same there

theorem Sound.blank : blank.Sound where
  timer := rfl
  asked := by simp [TypingChat.blank]
  registered := by simp [TypingChat.blank]
  sent := by simp [TypingChat.blank]
  shown := by simp [outcome, TypingChat.blank]

/-- The writer's latest word is at the end of everything. -/
theorem Sound.ask (h : s.Sound) (active : Bool) : (s.ask active).Sound := by
  refine ⟨rfl, by simp [TypingChat.ask], h.registered, ?_, fun yes => ?_⟩
  · intro c p _ _ last mem
    simpa [TypingChat.ask, eq_comm] using mem
  · obtain ⟨c, p, there, listening, -⟩ := h.shown yes
    exact ⟨c, p, there, listening, fun _ => by simp [TypingChat.ask]⟩

/-- If the registered connection is lost, all are. -/
theorem Sound.all_closed (h : s.Sound)
    (lost : ∀ c p, s.channel = some c → s.pipes c = some p → p.closed = true) (c : ℕ)
    (p : TypingPipe) (there : s.pipes c = some p) : p.closed = true := by
  by_contra isOpen
  exact isOpen (lost c p (h.registered c p there (Bool.eq_false_iff.2 isOpen)) there)

theorem not_open (closed : ∀ c p, s.pipes c = some p → p.closed = true) {c : ℕ} {p : TypingPipe}
    (there : s.pipes c = some p) : p.closed ≠ false := by
  simp [closed c p there]

/-- With all connections lost, the label is left to the listeners that are still there. -/
theorem Sound.of_all_closed (timer : s.idleTimer = s.isTyping)
    (asked : ∀ active ∈ s.inputs.getLast?, active = s.isTyping)
    (closed : ∀ c p, s.pipes c = some p → p.closed = true)
    (shown : s.outcome = true → ∃ c p, s.pipes c = some p ∧ p.listening = true) : s.Sound where
  timer := timer
  asked := asked
  registered _ _ there isOpen := absurd isOpen (not_open closed there)
  sent _ _ there isOpen := absurd isOpen (not_open closed there)
  shown yes :=
    let ⟨c, p, there, listening⟩ := shown yes
    ⟨c, p, there, listening, fun isOpen => absurd isOpen (not_open closed there)⟩

/-- The listener of a connection that is lost is still there. -/
theorem Sound.lose (h : s.Sound) {c : ℕ} {p : TypingPipe} (there : s.pipes c = some p) :
    (s.setPipe c { p with closed := true }).Sound where
  timer := h.timer
  asked := h.asked
  registered := forall_pipes_setPipe (by simp) fun i q _ => h.registered i q
  sent := forall_pipes_setPipe (by simp) fun i q _ => h.sent i q
  shown yes := by
    obtain ⟨i, q, at_i, reads, chain⟩ := h.shown yes
    by_cases same : i = c
    · subst same
      obtain rfl := Option.some.inj (there.symm.trans at_i)
      exact ⟨i, _, pipes_setPipe_self i _, reads, by simp⟩
    · exact ⟨i, q, (pipes_setPipe_of_ne same _).trans at_i, reads, chain⟩

/-- A message is sent on the registered connection, unless that is lost. -/
theorem send_cases (s : TypingChat) (active : Bool) :
    (s.send active = s ∧ ∀ c p, s.channel = some c → s.pipes c = some p → p.closed = true) ∨
    ∃ c p, s.channel = some c ∧ s.pipes c = some p ∧ p.closed = false ∧
      s.send active = s.setPipe c { p with flight := p.flight ++ [active] } := by
  unfold send
  cases registered : s.channel with
  | none => exact .inl ⟨rfl, by simp⟩
  | some c =>
    cases there : s.pipes c with
    | none =>
      refine .inl ⟨by simp [there], ?_⟩
      rintro i q ⟨⟩ found
      simp [there] at found
    | some p =>
      cases closed : p.closed with
      | true =>
        refine .inl ⟨by simp [there, closed], ?_⟩
        rintro i q ⟨⟩ found
        exact Option.some.inj (there.symm.trans found) ▸ closed
      | false => exact .inr ⟨c, p, rfl, there, closed, by simp [there, closed]⟩

/-- What was asked first is sent, unless there is no connection for it. -/
theorem Sound.send (h : s.Sound) {active : Bool} {rest : List Bool}
    (waiting : s.inputs = active :: rest) : (({ s with inputs := rest }).send active).Sound := by
  have asked : ∀ last ∈ rest.getLast?, last = s.isTyping := by
    intro last mem
    refine h.asked last ?_
    rw [waiting, List.getLast?_cons, Option.mem_def.1 mem]
    rfl
  obtain ⟨dropped, lost⟩ | ⟨c, p, registered, there, isOpen, sent⟩ :=
    send_cases { s with inputs := rest } active
  · rw [dropped]
    refine .of_all_closed h.timer asked (h.all_closed lost) fun yes => ?_
    obtain ⟨c, p, there, listening, -⟩ := h.shown yes
    exact ⟨c, p, there, listening⟩
  · have only {i : ℕ} (channel : s.channel = some i) : i = c :=
      Option.some.inj (channel.symm.trans registered)
    -- on the only open pipe the message goes from one list to the end of the other
    have moved : p.flight ++ [active] ++ rest = p.flight ++ s.inputs := by simp [waiting]
    rw [sent]
    refine ⟨h.timer, asked, ?_, ?_, fun yes => ?_⟩
    · exact forall_pipes_setPipe (fun _ => registered) fun i q _ => h.registered i q
    · refine forall_pipes_setPipe (fun o last mem => ?_) fun i q ne found o => ?_
      · have last_mem : last ∈ (p.flight ++ [active] ++ rest).getLast? := mem
        rw [moved] at last_mem
        exact h.sent c p there o last last_mem
      · exact absurd (only (h.registered i q found o)) ne
    · obtain ⟨i, q, at_i, reads, chain⟩ := h.shown yes
      by_cases same : i = c
      · subst same
        obtain rfl := Option.some.inj (there.symm.trans at_i)
        refine ⟨i, _, pipes_setPipe_self i _, reads, fun o => ?_⟩
        exact (congrArg (fun l => l.getLast?.getD true) moved).trans (chain o)
      · exact ⟨i, q, (pipes_setPipe_of_ne same _).trans at_i, reads,
          fun o => absurd (only (h.registered i q at_i o)) same⟩

theorem Sound.hangUp (h : s.Sound) {c : ℕ} {p : TypingPipe} (there : s.pipes c = some p) :
    (s.hangUp c p).Sound where
  timer := h.timer
  asked := h.asked
  registered := forall_pipes_setPipe (fun o => h.registered c p there o)
    fun i q _ => h.registered i q
  sent := forall_pipes_setPipe (fun o => h.sent c p there o) fun i q _ => h.sent i q
  shown yes := by simp [outcome, TypingChat.hangUp] at yes

/-- A round of the listener takes a message or finds that the connection is lost. -/
theorem listen_cases (s : TypingChat) (c : ℕ) (arrived : Bool) :
    s.listen c arrived = s ∨ ∃ p, s.pipes c = some p ∧ p.listening = true ∧
      ((p.closed = true ∧ s.listen c arrived = s.hangUp c p) ∨
        ∃ active rest, p.flight = active :: rest ∧ s.listen c arrived =
          { s.setPipe c { p with flight := rest } with
            netEvents := s.netEvents ++ [active] }) := by
  unfold listen
  cases there : s.pipes c with
  | none => exact .inl rfl
  | some p =>
    by_cases listening : p.listening = true
    · simp only [if_pos listening]
      cases flight : p.flight with
      | nil =>
        by_cases closed : p.closed = true
        · exact .inr ⟨p, rfl, listening, .inl ⟨closed, by simp [closed]⟩⟩
        · exact .inl (by simp [closed])
      | cons active rest =>
        by_cases cut : (p.closed && !arrived) = true
        · have closed : p.closed = true := (Bool.and_eq_true_iff.1 cut).1
          exact .inr ⟨p, rfl, listening, .inl ⟨closed, by simp only [if_pos cut]⟩⟩
        · exact .inr ⟨p, rfl, listening, .inr ⟨active, rest, flight, by simp only [if_neg cut]⟩⟩
    · exact .inl (by simp [listening])

theorem Sound.listen (h : s.Sound) (c : ℕ) (arrived : Bool) : (s.listen c arrived).Sound := by
  obtain same | ⟨p, there, listening, ⟨-, ended⟩ | ⟨active, rest, flight, taken⟩⟩ :=
    listen_cases s c arrived
  · rw [same]
    exact h
  · rw [ended]
    exact h.hangUp there
  · have sent : p.closed = false → (rest ++ s.inputs).getLast?.getD active = s.isTyping :=
      fun o => h.sent c p there o _ (by rw [flight, List.cons_append, List.getLast?_cons]; rfl)
    rw [taken]
    refine ⟨h.timer, h.asked, ?_, ?_, fun yes => ?_⟩
    · exact forall_pipes_setPipe (fun o => h.registered c p there o) fun i q _ => h.registered i q
    · refine forall_pipes_setPipe (fun o last mem => ?_) fun i q _ => h.sent i q
      have last_eq : (rest ++ s.inputs).getLast? = some last := mem
      have typing := sent o
      rw [last_eq] at typing
      exact typing
    · obtain rfl : active = true := by simpa [outcome] using yes
      exact ⟨c, _, pipes_setPipe_self c _, listening, sent⟩

theorem foldl_setVisible (updates : List Bool) (label : Option Bool) :
    updates.foldl (fun label active => label.map fun _ => active) label =
      label.map fun shown => updates.getLast?.getD shown := by
  induction updates generalizing label with
  | nil => simp
  | cons active updates ih =>
    rw [List.foldl_cons, ih, Option.map_map, List.getLast?_cons]
    rfl

/-- Without a page, updates get lost, and there is no label to be wrong. -/
theorem outcome_of_view (yes : (s.step .view).outcome = true) : s.outcome = true := by
  simp only [outcome, step, foldl_setVisible, List.nil_append] at yes
  cases label : s.typingLabel with
  | none =>
    cases last : s.netEvents.getLast? with
    | none => simp [label, last] at yes
    | some active => simpa [outcome, label, last] using yes
  | some shown => simpa [outcome, label] using yes

theorem Sound.step (h : s.Sound) {e : TypingEvent} (gives : s.GivesUpClosed e) :
    (s.step e).Sound := by
  cases e with
  | changed empty =>
    unfold TypingChat.step
    dsimp only
    split_ifs with none typing typing
    · exact h.ask false
    · exact ⟨(Bool.eq_false_iff.2 typing).symm, h.asked, h.registered, h.sent, h.shown⟩
    · exact ⟨typing.symm, h.asked, h.registered, h.sent, h.shown⟩
    · exact h.ask true
  | idle =>
    unfold TypingChat.step
    dsimp only
    split_ifs
    · exact h.ask false
    · exact h
  | setTyping =>
    unfold TypingChat.step
    cases waiting : s.inputs with
    | nil => exact h
    | cons active rest => exact h.send waiting
  | connected c =>
    have closed := h.all_closed gives
    unfold TypingChat.step
    dsimp only
    cases free : s.pipes c with
    | some p => exact h
    | none =>
      dsimp only
      refine ⟨h.timer, h.asked, ?_, ?_, fun yes => ?_⟩
      · exact forall_pipes_setPipe (fun _ => rfl) fun i p _ there isOpen =>
          absurd isOpen (not_open closed there)
      · exact forall_pipes_setPipe (fun _ => h.asked) fun i p _ there isOpen =>
          absurd isOpen (not_open closed there)
      · obtain ⟨i, p, there, listening, -⟩ := h.shown yes
        have ne : i ≠ c := fun same => by simp [same, free] at there
        exact ⟨i, p, (pipes_setPipe_of_ne ne _).trans there, listening,
          fun isOpen => absurd isOpen (not_open closed there)⟩
  | removed =>
    refine .of_all_closed h.timer h.asked (h.all_closed gives) fun yes => ?_
    obtain ⟨c, p, there, listening, -⟩ := h.shown yes
    exact ⟨c, p, there, listening⟩
  | lost c =>
    unfold TypingChat.step
    dsimp only
    cases there : s.pipes c with
    | none => exact h
    | some p => exact h.lose there
  | listen c arrived => exact h.listen c arrived
  | handled =>
    unfold TypingChat.step
    cases waiting : s.netEvents with
    | nil => exact h
    | cons active rest =>
      refine ⟨h.timer, h.asked, h.registered, h.sent, fun yes => h.shown ?_⟩
      simpa [outcome, waiting] using yes
  | pageBuilt =>
    refine ⟨h.timer, h.asked, h.registered, h.sent, fun yes => h.shown ?_⟩
    simpa [outcome, TypingChat.step] using yes
  | view =>
    exact ⟨h.timer, h.asked, h.registered, h.sent, fun yes => h.shown (outcome_of_view yes)⟩

/-- A label that is shown when nothing is on its way tells the truth. -/
theorem Sound.honest (h : s.Sound) (quiet : s.Quiet) (shown : s.typingLabel = some true) :
    s.isTyping = true := by
  have yes : s.outcome = true := by simp [outcome, quiet.netEvents, quiet.pending, shown]
  obtain ⟨c, p, there, listening, chain⟩ := h.shown yes
  have isOpen : p.closed = false := by
    by_contra closed
    simp [quiet.closed c p there (by simpa using closed)] at listening
  simpa [quiet.flight c p there isOpen, quiet.inputs] using (chain isOpen).symm

/-! ## A channel that holds -/

/-- A step that leaves the connection `c` alone. -/
def Holds (c : ℕ) : TypingEvent → Prop
  | .connected _ | .removed => False
  | .lost i => i ≠ c
  | _ => True

/-- The page is built, and what is on its way to it on `c` ends with what the writer does. -/
structure Follows (c : ℕ) (p : TypingPipe) (s : TypingChat) : Prop where
  channel : s.channel = some c
  there : s.pipes c = some p
  isOpen : p.closed = false
  listening : p.listening = true
  others : ∀ i q, i ≠ c → s.pipes i = some q → q.listening = false
  follows : ∃ shown, s.typingLabel = some shown ∧
    (s.pendingTypingUpdates ++ s.netEvents ++ p.flight ++ s.inputs).getLast?.getD shown =
      s.isTyping

theorem Follows.ask {c : ℕ} {p : TypingPipe} (h : Follows c p s) (active : Bool) :
    Follows c p (s.ask active) := by
  obtain ⟨shown, label, -⟩ := h.follows
  exact ⟨h.channel, h.there, h.isOpen, h.listening, h.others, shown, label,
    by simp [TypingChat.ask]⟩

/-- Indicators that move on without overtaking each other change nothing. -/
theorem Follows.moved {t : TypingChat} {c : ℕ} {p p' : TypingPipe} (h : Follows c p s)
    (channel : t.channel = s.channel) (there : t.pipes c = some p')
    (closed : p'.closed = p.closed) (listening : p'.listening = p.listening)
    (others : ∀ i, i ≠ c → t.pipes i = s.pipes i) (label : t.typingLabel = s.typingLabel)
    (isTyping : t.isTyping = s.isTyping)
    (moved : t.pendingTypingUpdates ++ t.netEvents ++ p'.flight ++ t.inputs =
      s.pendingTypingUpdates ++ s.netEvents ++ p.flight ++ s.inputs) : Follows c p' t where
  channel := channel.trans h.channel
  there := there
  isOpen := closed.trans h.isOpen
  listening := listening.trans h.listening
  others i q ne found := h.others i q ne ((others i ne).symm.trans found)
  follows := by
    rw [label, moved, isTyping]
    exact h.follows

theorem Follows.send {c : ℕ} {p : TypingPipe} {active : Bool} {rest : List Bool}
    (h : Follows c p s) (waiting : s.inputs = active :: rest) :
    ∃ p', Follows c p' (({ s with inputs := rest }).send active) := by
  obtain ⟨-, lost⟩ | ⟨i, q, registered, there, -, sent⟩ :=
    send_cases { s with inputs := rest } active
  · simpa [h.isOpen] using lost c p h.channel h.there
  · obtain rfl : i = c := Option.some.inj (registered.symm.trans h.channel)
    obtain rfl := Option.some.inj (there.symm.trans h.there)
    rw [sent]
    exact ⟨_, h.moved rfl (pipes_setPipe_self i _) rfl rfl
      (fun j ne => pipes_setPipe_of_ne ne _) rfl rfl (by simp [TypingChat.setPipe, waiting])⟩

theorem Follows.listen {c : ℕ} {p : TypingPipe} (h : Follows c p s) (i : ℕ) (arrived : Bool) :
    ∃ p', Follows c p' (s.listen i arrived) := by
  obtain same | ⟨q, there, listening, round⟩ := listen_cases s i arrived
  · rw [same]
    exact ⟨p, h⟩
  · -- no other listener is left
    obtain rfl : i = c := by
      by_contra ne
      simp [h.others i q ne there] at listening
    obtain rfl := Option.some.inj (there.symm.trans h.there)
    obtain ⟨closed, -⟩ | ⟨active, rest, flight, taken⟩ := round
    · simp [h.isOpen] at closed
    · rw [taken]
      exact ⟨_, h.moved rfl (pipes_setPipe_self i _) rfl rfl
        (fun j ne => pipes_setPipe_of_ne ne _) rfl rfl (by simp [TypingChat.setPipe, flight])⟩

theorem Follows.step {c : ℕ} {p : TypingPipe} (h : Follows c p s) {e : TypingEvent}
    (holds : Holds c e) : ∃ p', Follows c p' (s.step e) := by
  have same {t : TypingChat} (channel : t.channel = s.channel) (pipes : t.pipes = s.pipes)
      (label : t.typingLabel = s.typingLabel) (isTyping : t.isTyping = s.isTyping)
      (moved : t.pendingTypingUpdates ++ t.netEvents ++ p.flight ++ t.inputs =
        s.pendingTypingUpdates ++ s.netEvents ++ p.flight ++ s.inputs) :
      ∃ p', Follows c p' t :=
    ⟨p, h.moved channel (pipes ▸ h.there) rfl rfl (fun _ _ => congrFun pipes _) label isTyping
      moved⟩
  cases e with
  | changed empty =>
    unfold TypingChat.step
    dsimp only
    split_ifs
    · exact ⟨p, h.ask false⟩
    · exact same rfl rfl rfl rfl rfl
    · exact same rfl rfl rfl rfl rfl
    · exact ⟨p, h.ask true⟩
  | idle =>
    unfold TypingChat.step
    dsimp only
    split_ifs
    · exact ⟨p, h.ask false⟩
    · exact ⟨p, h⟩
  | setTyping =>
    unfold TypingChat.step
    cases waiting : s.inputs with
    | nil => exact ⟨p, h⟩
    | cons active rest => exact h.send waiting
  | connected => exact holds.elim
  | removed => exact holds.elim
  | lost i =>
    unfold TypingChat.step
    dsimp only
    cases there : s.pipes i with
    | none => exact ⟨p, h⟩
    | some q =>
      dsimp only
      refine ⟨p, h.channel, (pipes_setPipe_of_ne (Ne.symm holds) _).trans h.there, h.isOpen,
        h.listening, ?_, h.follows⟩
      intro j r ne found
      by_cases same : j = i
      · subst same
        rw [pipes_setPipe_self] at found
        exact Option.some.inj found ▸ h.others j q ne there
      · exact h.others j r ne ((pipes_setPipe_of_ne same _).symm.trans found)
  | listen i arrived => exact h.listen i arrived
  | handled =>
    unfold TypingChat.step
    cases waiting : s.netEvents with
    | nil => exact ⟨p, h⟩
    | cons active rest => exact same rfl rfl rfl rfl (by simp [waiting])
  | pageBuilt =>
    obtain ⟨shown, label, follows⟩ := h.follows
    exact ⟨p, h.channel, h.there, h.isOpen, h.listening, h.others, shown,
      by simp [TypingChat.step, label], follows⟩
  | view =>
    obtain ⟨shown, label, follows⟩ := h.follows
    refine ⟨p, h.channel, h.there, h.isOpen, h.listening, h.others,
      s.pendingTypingUpdates.getLast?.getD shown, ?_, ?_⟩
    · simp [TypingChat.step, foldl_setVisible, label]
    · simpa [TypingChat.step] using follows

/-- In a quiet state the label is what the writer does. -/
theorem Follows.label_eq {c : ℕ} {p : TypingPipe} (h : Follows c p s) (quiet : s.Quiet) :
    s.typingLabel = some s.isTyping := by
  obtain ⟨shown, label, follows⟩ := h.follows
  rw [quiet.pending, quiet.netEvents, quiet.flight c p h.there h.isOpen, quiet.inputs] at follows
  exact label.trans (congrArg some follows)

theorem Follows.run {c : ℕ} {p : TypingPipe} (h : Follows c p s) {after : List TypingEvent}
    (holds : ∀ e ∈ after, Holds c e) : ∃ p', Follows c p' (exec TypingChat.step s after) := by
  induction after generalizing s p with
  | nil => exact ⟨p, h⟩
  | cons e after ih =>
    obtain ⟨p', follows⟩ := h.step (holds e List.mem_cons_self)
    exact ih follows fun e' mem => holds e' (List.mem_cons_of_mem _ mem)

/-- Once label and writer agree and nothing is on its way, they follow each other. -/
theorem Sound.follows (h : s.Sound) (quiet : s.Quiet) {c : ℕ} {p : TypingPipe}
    (there : s.pipes c = some p) (isOpen : p.closed = false) (listening : p.listening = true)
    (agree : s.typingLabel = some s.isTyping) : Follows c p s := by
  refine ⟨h.registered c p there isOpen, there, isOpen, listening, fun i q ne found => ?_,
    s.isTyping, agree, ?_⟩
  · refine quiet.closed i q found ?_
    by_contra o
    have registered := h.registered i q found (Bool.eq_false_iff.2 o)
    exact ne (Option.some.inj (registered.symm.trans (h.registered c p there isOpen)))
  · simp [quiet.pending, quiet.netEvents, quiet.flight c p there isOpen, quiet.inputs]

end TypingChat

/-! ## The indicator -/

/-- What the label of a page says in a state of a run. -/
structure TypingTells (s : TypingChat) : Prop where
  /-- Whoever writes has a timer running that ends it. -/
  timer : s.idleTimer = s.isTyping
  honest : s.Quiet → s.typingLabel = some true → s.isTyping = true
  /-- While the connection holds, the label follows the writer. -/
  follows : ∀ c p after, s.Quiet → s.pipes c = some p → p.closed = false → p.listening = true →
    s.typingLabel = some s.isTyping → (∀ e ∈ after, TypingChat.Holds c e) →
      let t := exec TypingChat.step s after
      t.Quiet → t.typingLabel = some t.isTyping

/-- **The indicator does not stay for somebody who stopped writing**, if a channel is given up only
after its connection is lost. -/
theorem typing_indicator (es : List TypingEvent)
    (gives : Along TypingChat.step TypingChat.GivesUpClosed .blank es) :
    TypingTells (exec TypingChat.step .blank es) := by
  have sound : (exec TypingChat.step .blank es).Sound :=
    exec_invariant (fun _ _ sound gives => sound.step gives) .blank gives
  refine ⟨sound.timer, sound.honest, fun c p after quiet there isOpen listening agree holds => ?_⟩
  obtain ⟨p', follows⟩ := (sound.follows quiet there isOpen listening agree).run holds
  exact follows.label_eq

/-- A connection is made and lost while somebody writes. -/
theorem typing_indicator_lost :
    TypingTells (exec TypingChat.step .blank
      [.connected 0, .pageBuilt, .changed false, .setTyping, .listen 0 true, .handled, .view,
        .lost 0, .removed, .connected 1, .idle, .setTyping]) :=
  typing_indicator _ ⟨by simp [TypingChat.GivesUpClosed, TypingChat.blank], trivial, trivial,
    trivial, trivial, trivial, trivial, trivial, by rintro c p ⟨⟩ ⟨⟩; rfl, by rintro c p ⟨⟩,
    trivial, trivial, trivial⟩

/-- A second connection may overtake the first: the label stays, though nothing is on its way. -/
example :
    let s := exec TypingChat.step .blank
      [.connected 0, .pageBuilt, .changed false, .setTyping, .connected 1, .idle, .setTyping,
        .listen 1 true, .listen 0 true, .handled, .handled, .view]
    s.typingLabel = some true ∧ s.isTyping = false ∧ s.inputs = [] ∧ s.netEvents = [] := by
  decide

end Zodia.App
